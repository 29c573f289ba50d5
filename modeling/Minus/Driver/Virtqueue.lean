/-
# Driver.Virtqueue — the descriptors of a virtqueue

`virtio_mmio_setup_queue`, `virtio_add_buf` and `virtio_get_buf` of
`kernel/driver/virtio/virtio_mmio.c`, on the tables that they share with the device.  An
access past the descriptor table or past `data` ends the computation (`Fault`).

The free descriptors form a chain through their `next` fields, and `virtio_add_buf`
overwrites a descriptor before it reads `next` from it: the chain goes on where the
caller's own `next` points.  `virtio_get_buf` puts the first descriptor of a request back
and forgets the others.  So the descriptors are conserved only in runs where the caller
passes on the links of the chain and every request that completes has one descriptor
(`descriptors_conserved`).
-/
import Mathlib.Data.List.Perm.Basic
import Mathlib.Data.List.Perm.Subperm
import Mathlib.Data.List.Range
import Minus.Theory.Machine
import Minus.Theory.Slots

namespace Minus.Driver.Virtqueue

set_option autoImplicit false

open Minus.Theory

inductive Fault where
  | bounds
  deriving DecidableEq

/-- `struct vring_desc`. -/
structure Desc where
  addr : UInt64
  len : UInt32
  flags : UInt16
  next : UInt16
  deriving DecidableEq

def vringDescFNext : UInt16 := 1

def virtqueueMaxSize : Nat := 64

/-- A pointer of the caller; `none` is NULL. -/
abbrev Cookie := Option Nat

/-- `struct virtqueue` with the three tables it points to. -/
structure Vq where
  num : Nat
  freeDesc : Nat
  lastUsedIdx : UInt16
  desc : Nat → Desc
  data : Nat → Cookie
  availIdx : UInt16
  availRing : Nat → UInt16
  usedIdx : UInt16
  usedRing : Nat → UInt32 × UInt32

def Vq.setDesc (vq : Vq) (idx : Nat) (d : Desc) : Vq := { vq with desc := Function.update vq.desc idx d }

/-- `virtio_mmio_setup_queue`, from zeroed pages. -/
def setupQueue (num : Nat) : Vq where
  num
  freeDesc := 0
  lastUsedIdx := 0
  desc i := ⟨0, 0, 0, if i + 1 < num then UInt16.ofNat (i + 1) else 0⟩
  data _ := none
  availIdx := 0
  availRing _ := 0
  usedIdx := 0
  usedRing _ := (0, 0)

def einval : Int := -22
def ebusy : Int := -16

/-- An index into the descriptor table. -/
def inTable (vq : Vq) (idx : Nat) : Except Fault Unit :=
  if idx < vq.num then .ok () else .error .bounds

/-- An index into `data`. -/
def inData (idx : Nat) : Except Fault Unit :=
  if idx < virtqueueMaxSize then .ok () else .error .bounds

/-- The loop of `virtio_add_buf`; `prev` is the descriptor before, if there is one. -/
def addLoop (vq : Vq) (prev : Option Nat) : List Desc → Except Fault (Vq × Option Nat)
  | [] => .ok (vq, prev)
  | d :: rest => do
      let idx := vq.freeDesc
      inTable vq idx
      let vq := vq.setDesc idx d
      let vq := match prev with
        | none => vq
        | some prev => vq.setDesc prev { vq.desc prev with
            flags := (vq.desc prev).flags ||| vringDescFNext
            next := UInt16.ofNat idx }
      addLoop { vq with freeDesc := (vq.desc idx).next.toNat } (some idx) rest

/-- The end of `virtio_add_buf`: the last descriptor, the cookie and the available ring. -/
def publish (vq : Vq) (head last : Nat) (cookie : Cookie) : Vq :=
  let vq := vq.setDesc last { vq.desc last with flags := (vq.desc last).flags &&& ~~~vringDescFNext }
  { vq with
    data := Function.update vq.data head cookie
    availRing := Function.update vq.availRing (vq.availIdx.toNat % vq.num) (UInt16.ofNat head)
    availIdx := vq.availIdx + 1 }

def virtioAddBuf (vq : Vq) (descs : List Desc) (cookie : Cookie) : Except Fault (Vq × Int) :=
  if descs = [] then .ok (vq, einval)
  else do
    let head := vq.freeDesc
    inData head
    if (vq.data head).isSome then .ok (vq, ebusy)
    else do
      match ← addLoop vq none descs with
      | (vq, none) => .ok (vq, 0)
      | (vq, some last) => .ok (publish vq head last cookie, 0)

def virtioGetBuf (vq : Vq) : Except Fault (Vq × Cookie) :=
  if vq.lastUsedIdx = vq.usedIdx then .ok (vq, none)
  else do
    let id := (vq.usedRing (vq.lastUsedIdx.toNat % vq.num)).1.toNat % 65536
    inData id
    inTable vq id
    .ok ({ vq.setDesc id { vq.desc id with next := UInt16.ofNat vq.freeDesc } with
      data := Function.update vq.data id none
      freeDesc := id
      lastUsedIdx := vq.lastUsedIdx + 1 }, vq.data id)

/-- The device puts a request on the used ring. -/
def complete (vq : Vq) (head : Nat) (len : UInt32) : Vq :=
  { vq with
    usedRing := Function.update vq.usedRing (vq.usedIdx.toNat % vq.num) (UInt32.ofNat head, len)
    usedIdx := vq.usedIdx + 1 }

/-! ## Requests -/

/-- The descriptors that `virtio_add_buf` fills: the free one, and on where the caller points. -/
def taken : Nat → List Desc → List Nat
  | _, [] => []
  | idx, d :: rest => idx :: taken d.next.toNat rest

/-- A request that is with the device. -/
structure Request where
  cookie : Cookie
  chain : List Nat
  given : List Desc

/-- The queue with a record of what was asked: the requests that are outstanding, the first
descriptors of those on the used ring, the cookies that were submitted, and those that
`virtio_get_buf` has returned. -/
structure Queue where
  vq : Vq
  requests : List Request
  completed : List Nat
  submitted : List Cookie
  returned : List Cookie

inductive Call where
  | addBuf (descs : List Desc) (cookie : Cookie)
  | getBuf
  | complete (head : Nat) (len : UInt32)

def Request.StartsAt (head : Nat) (r : Request) : Prop := r.chain.head? = some head

instance (head : Nat) : DecidablePred (Request.StartsAt head) := fun _ => inferInstanceAs (Decidable (_ = _))

def perform (q : Queue) : Call → Except Fault Queue
  | .addBuf descs cookie => do
      let (vq, ret) ← virtioAddBuf q.vq descs cookie
      if ret = 0 then
        .ok { q with
          vq
          requests := ⟨cookie, taken q.vq.freeDesc descs, descs⟩ :: q.requests
          submitted := q.submitted ++ [cookie] }
      else .ok { q with vq }
  | .getBuf => do
      let (vq, ret) ← virtioGetBuf q.vq
      match q.completed with
      | [] => .ok { q with vq }
      | head :: rest =>
          .ok { q with
            vq
            requests := q.requests.eraseP (Request.StartsAt head)
            completed := rest
            returned := q.returned ++ [ret] }
  | .complete head len => .ok { q with vq := complete q.vq head len, completed := q.completed ++ [head] }

def step (q : Except Fault Queue) (call : Call) : Except Fault Queue := do
  let q ← q
  perform q call

/-- The device completes a request that is outstanding, once. -/
def Allowed (q : Queue) : Call → Prop
  | .complete head _ => (∃ r ∈ q.requests, r.StartsAt head) ∧ head ∉ q.completed
  | _ => True

def machine : Machine (Except Fault Queue) Call where
  enabled q call := Ends (fun q => Allowed q call) (fun _ => True) q
  step := step

def initial (num : Nat) : Queue := ⟨setupQueue num, [], [], [], []⟩

/-! ## What the calls have to meet -/

/-- The descriptors that are with the device. -/
def Queue.busy (q : Queue) : List Nat := q.requests.flatMap Request.chain

/-- The caller's descriptors carry on the links of the free chain. -/
def Follows (desc : Nat → Desc) : Nat → List Desc → Prop
  | _, [] => True
  | idx, d :: rest => d.next = (desc idx).next ∧ Follows desc d.next.toNat rest

/-- The slot of the used ring `k` entries behind the driver. -/
def slot (vq : Vq) (k : Nat) : Nat := (vq.lastUsedIdx + UInt16.ofNat k).toNat % vq.num

def AddClean (q : Queue) (descs : List Desc) (cookie : Cookie) : Prop :=
  descs = [] ∨ (q.busy.length = q.vq.num ∧ (q.vq.data q.vq.freeDesc).isSome = true) ∨
    (descs.length + q.busy.length ≤ q.vq.num ∧ Follows q.vq.desc q.vq.freeDesc descs ∧ cookie.isSome = true)

/-- An addition finds enough free descriptors and carries on their links, or finds the queue
full at the first descriptor of a request; what completes has one descriptor; and the device
has room on the used ring. -/
def Clean (q : Queue) : Call → Prop
  | .addBuf descs cookie => AddClean q descs cookie
  | .getBuf => ∀ head ∈ q.completed.head?, ∀ r ∈ q.requests, r.StartsAt head → r.chain.length = 1
  | .complete _ _ => ∀ k < q.completed.length, slot q.vq k ≠ q.vq.usedIdx.toNat % q.vq.num

def CleanStep (q : Except Fault Queue) (call : Call) : Prop := Ends (fun q => Clean q call) (fun _ => True) q

/-! ## Chains -/

/-- The descriptors from `start` on, through `next`. -/
def Chain (desc : Nat → Desc) : Nat → List Nat → Prop
  | _, [] => True
  | start, x :: rest => x = start ∧ Chain desc (desc x).next.toNat rest

/-- The descriptors of a request as it was given, linked in this order; `last` is what became
of the last one. -/
def LinkedBy (last : Desc → Desc) (desc : Nat → Desc) : List Nat → List Desc → Prop
  | x :: y :: xs, d :: ds =>
      desc x = { d with flags := d.flags ||| vringDescFNext, next := UInt16.ofNat y } ∧
        LinkedBy last desc (y :: xs) ds
  | [x], [d] => desc x = last d
  | _, _ => False

/-- The last descriptor has no `VRING_DESC_F_NEXT`. -/
def closed (d : Desc) : Desc := { d with flags := d.flags &&& ~~~vringDescFNext }

section Chains

variable {desc desc' : Nat → Desc} {last : Desc → Desc} {start x y : Nat} {xs rest : List Nat} {d : Desc}
  {ds : List Desc}

theorem Chain.congr (chain : Chain desc start xs) (same : ∀ x ∈ xs, desc' x = desc x) : Chain desc' start xs := by
  induction xs generalizing start with
  | nil => trivial
  | cons x xs ih =>
      obtain ⟨here, later⟩ := chain
      refine ⟨here, ?_⟩
      rw [same x List.mem_cons_self]
      exact ih later fun y there => same y (List.mem_cons_of_mem _ there)

theorem LinkedBy.congr (linked : LinkedBy last desc xs ds) (same : ∀ x ∈ xs, desc' x = desc x) :
    LinkedBy last desc' xs ds := by
  induction xs generalizing ds with
  | nil => cases ds <;> exact linked.elim
  | cons x xs ih =>
      cases ds with
      | nil => cases xs <;> exact linked.elim
      | cons d ds =>
          cases xs with
          | nil =>
              cases ds with
              | nil => exact (same x List.mem_cons_self).trans linked
              | cons e es => exact linked.elim
          | cons y xs =>
              exact ⟨(same x List.mem_cons_self).trans linked.1,
                ih linked.2 fun z there => same z (List.mem_cons_of_mem _ there)⟩

/-- Closing the last descriptor of a chain. -/
theorem LinkedBy.close (linked : LinkedBy id desc xs ds) (nodup : xs.Nodup) {l : Nat} (end_ : xs.getLast? = some l) :
    LinkedBy closed (Function.update desc l (closed (desc l))) xs ds := by
  induction xs generalizing ds with
  | nil => cases ds <;> exact linked.elim
  | cons x xs ih =>
      cases ds with
      | nil => cases xs <;> exact linked.elim
      | cons d ds =>
          cases xs with
          | nil =>
              cases ds with
              | nil =>
                  cases end_
                  show Function.update desc x _ x = closed d
                  rw [Function.update_self]
                  exact congrArg closed linked
              | cons e es => exact linked.elim
          | cons y xs =>
              have last : (y :: xs).getLast? = some l := by simpa using end_
              have other : x ≠ l := fun same =>
                (List.nodup_cons.1 nodup).1 (same ▸ List.mem_of_getLast? last)
              refine ⟨?_, ih linked.2 (List.nodup_cons.1 nodup).2 last⟩
              rw [Function.update_of_ne other]
              exact linked.1

/-- The caller's links are those of the chain. -/
theorem links_of_follows (chain : Chain desc start (xs ++ rest)) (follows : Follows desc start ds)
    (length : xs.length = ds.length) : ds.map Desc.next = xs.map fun x => (desc x).next := by
  induction xs generalizing start ds with
  | nil =>
      cases ds with
      | nil => rfl
      | cons d ds => simp at length
  | cons x xs ih =>
      cases ds with
      | nil => simp at length
      | cons d ds =>
          obtain ⟨rfl, later⟩ := chain
          obtain ⟨here, follows⟩ := follows
          have tail := ih later (by rwa [← here]) (by simpa using length)
          rw [List.map_cons, List.map_cons, here, tail]

theorem taken_eq (chain : Chain desc start (xs ++ rest)) (links : ds.map Desc.next = xs.map fun x => (desc x).next) :
    taken start ds = xs := by
  induction xs generalizing start ds with
  | nil => rw [List.map_eq_nil_iff.1 links, taken]
  | cons x xs ih =>
      cases ds with
      | nil => cases links
      | cons d ds =>
          obtain ⟨rfl, later⟩ := chain
          obtain ⟨here, tail⟩ := List.cons.inj links
          rw [taken, here, ih later tail]

theorem setDesc_self (vq : Vq) (idx : Nat) (d : Desc) : (vq.setDesc idx d).desc idx = d := Function.update_self ..

theorem setDesc_other (vq : Vq) {idx other : Nat} (d : Desc) (ne : other ≠ idx) :
    (vq.setDesc idx d).desc other = vq.desc other := Function.update_of_ne ne ..

/-- **The loop of `virtio_add_buf` takes the first descriptors of the free chain**, if the caller
carries on its links. -/
theorem addLoop_links {vq : Vq} {p : Nat} (chain : Chain vq.desc vq.freeDesc (xs ++ rest))
    (nodup : (p :: (xs ++ rest)).Nodup) (links : ds.map Desc.next = xs.map fun x => (vq.desc x).next)
    (nexts : ∀ x ∈ xs, (vq.desc x).next.toNat < vq.num) (start : vq.freeDesc < vq.num) :
    ∃ desc' free l, addLoop vq (some p) ds = .ok ({ vq with desc := desc', freeDesc := free }, some l) ∧
      (p :: xs).getLast? = some l ∧ LinkedBy id desc' (p :: xs) (vq.desc p :: ds) ∧
      (∀ y, y ∉ p :: xs → desc' y = vq.desc y) ∧ Chain vq.desc free rest ∧ free < vq.num := by
  induction xs generalizing vq p ds with
  | nil =>
      rw [List.map_eq_nil_iff.1 links]
      exact ⟨vq.desc, vq.freeDesc, p, rfl, rfl, rfl, fun _ _ => rfl, chain, start⟩
  | cons x xs ih =>
      cases ds with
      | nil => cases links
      | cons d ds =>
          obtain ⟨rfl, later⟩ := chain
          obtain ⟨here, tail⟩ := List.cons.inj links
          obtain ⟨fresh, nodup'⟩ := List.nodup_cons.1 nodup
          have freshX := (List.nodup_cons.1 nodup').1
          have apart : p ≠ vq.freeDesc := fun same => fresh (same ▸ List.mem_cons_self)
          -- the state of the next round
          let vq' : Vq := { (vq.setDesc vq.freeDesc d).setDesc p { vq.desc p with
            flags := (vq.desc p).flags ||| vringDescFNext
            next := UInt16.ofNat vq.freeDesc } with freeDesc := d.next.toNat }
          have other {y : Nat} (notP : y ≠ p) (notX : y ≠ vq.freeDesc) : vq'.desc y = vq.desc y := by
            show ((vq.setDesc vq.freeDesc d).setDesc p _).desc y = _
            rw [setDesc_other _ _ notP, setDesc_other _ _ notX]
          have inside {y : Nat} (member : y ∈ xs ++ rest) : vq'.desc y = vq.desc y :=
            other (fun same => fresh (same ▸ List.mem_cons_of_mem _ member)) fun same => freshX (same ▸ member)
          have atX : vq'.desc vq.freeDesc = d := by
            show ((vq.setDesc vq.freeDesc d).setDesc p _).desc vq.freeDesc = _
            rw [setDesc_other _ _ apart.symm, setDesc_self]
          have round : addLoop vq (some p) (d :: ds) = addLoop vq' (some vq.freeDesc) ds := by
            rw [addLoop, inTable, if_pos start, ok_bind]
            dsimp only
            rw [setDesc_other vq d apart, setDesc_other _ _ apart.symm, setDesc_self]
          have chain' : Chain vq'.desc vq'.freeDesc (xs ++ rest) := by
            show Chain vq'.desc d.next.toNat (xs ++ rest)
            rw [here]
            exact later.congr fun y member => inside member
          have links' : ds.map Desc.next = xs.map fun x => (vq'.desc x).next := by
            rw [tail]
            exact List.map_congr_left fun y member => by rw [inside (List.mem_append_left _ member)]
          have nexts' : ∀ y ∈ xs, (vq'.desc y).next.toNat < vq'.num := by
            intro y member
            rw [inside (List.mem_append_left _ member)]
            exact nexts y (List.mem_cons_of_mem _ member)
          have start' : vq'.freeDesc < vq'.num := by
            show d.next.toNat < vq.num
            rw [here]
            exact nexts _ List.mem_cons_self
          obtain ⟨desc', free, l, done, end_, linked, outside, chain'', bound⟩ :=
            ih chain' nodup' links' nexts' start'
          refine ⟨desc', free, l, round.trans done, by simpa using end_, ⟨?_, ?_⟩, ?_, ?_, bound⟩
          · rw [outside p fun member => fresh (List.mem_append_left rest member)]
            exact setDesc_self ..
          · rw [atX] at linked
            exact linked
          · intro y out
            obtain ⟨notP, out⟩ := not_or.1 (fun both => out (List.mem_cons.2 both))
            rw [outside y out]
            exact other notP fun same => out (same ▸ List.mem_cons_self)
          · exact chain''.congr fun y member => (inside (List.mem_append_right _ member)).symm

end Chains

/-! ## Conservation -/

/-- Every descriptor is free or with one request, and the records are right about the tables. -/
structure Conserves (q : Queue) (free : List Nat) : Prop where
  chain : Chain q.vq.desc q.vq.freeDesc free
  perm : (free ++ q.busy).Perm (List.range q.vq.num)
  start : q.vq.freeDesc < q.vq.num
  small : q.vq.num ≤ virtqueueMaxSize
  nexts : ∀ x ∈ free, (q.vq.desc x).next.toNat < q.vq.num
  idle : ∀ x ∈ free, q.vq.data x = none
  linked : ∀ r ∈ q.requests, LinkedBy closed q.vq.desc r.chain r.given
  cookies : ∀ r ∈ q.requests, ∃ head, r.StartsAt head ∧ q.vq.data head = r.cookie ∧ r.cookie.isSome = true
  once : (q.returned ++ q.requests.map Request.cookie).Perm q.submitted
  used : q.vq.lastUsedIdx + UInt16.ofNat q.completed.length = q.vq.usedIdx
  entries : ∀ k head, q.completed[k]? = some head → (q.vq.usedRing (slot q.vq k)).1 = UInt32.ofNat head
  known : ∀ head ∈ q.completed, ∃ r ∈ q.requests, r.StartsAt head
  distinct : q.completed.Nodup

section Conserves

variable {q : Queue} {free : List Nat}

theorem Conserves.nodup (conserves : Conserves q free) : (free ++ q.busy).Nodup :=
  conserves.perm.nodup_iff.2 List.nodup_range

theorem Conserves.lt (conserves : Conserves q free) {x : Nat} (member : x ∈ free ++ q.busy) : x < q.vq.num :=
  List.mem_range.1 (conserves.perm.mem_iff.1 member)

theorem Conserves.count (conserves : Conserves q free) : free.length + q.busy.length = q.vq.num := by
  have := conserves.perm.length_eq
  simpa using this

/-- The first descriptor of a request is with it. -/
theorem StartsAt.mem_busy {r : Request} {head : Nat} (member : r ∈ q.requests) (starts : r.StartsAt head) :
    head ∈ q.busy :=
  List.mem_flatMap.2 ⟨r, member, List.mem_of_head? starts⟩

/-- The chain that an addition fills. -/
theorem virtioAddBuf_fills (conserves : Conserves q free) {xs rest : List Nat} {d : Desc} {ds : List Desc}
    (parts : free = xs ++ rest) (links : (d :: ds).map Desc.next = xs.map fun x => (q.vq.desc x).next)
    (cookie : Cookie) :
    ∃ desc' start, virtioAddBuf q.vq (d :: ds) cookie = .ok ({ q.vq with
        desc := desc'
        freeDesc := start
        data := Function.update q.vq.data q.vq.freeDesc cookie
        availRing := Function.update q.vq.availRing (q.vq.availIdx.toNat % q.vq.num) (UInt16.ofNat q.vq.freeDesc)
        availIdx := q.vq.availIdx + 1 }, 0) ∧
      LinkedBy closed desc' xs (d :: ds) ∧ (∀ y, y ∉ xs → desc' y = q.vq.desc y) ∧
      Chain q.vq.desc start rest ∧ start < q.vq.num ∧ xs.head? = some q.vq.freeDesc := by
  obtain ⟨x, xs, rfl⟩ : ∃ x xs', xs = x :: xs' := by
    cases xs with
    | nil => cases links
    | cons x xs => exact ⟨x, xs, rfl⟩
  have chain := conserves.chain
  rw [parts] at chain
  obtain ⟨rfl, later⟩ := chain
  obtain ⟨here, tail⟩ := List.cons.inj links
  have nodup : (q.vq.freeDesc :: (xs ++ rest)).Nodup := by
    have := (List.nodup_append.1 conserves.nodup).1
    rwa [parts] at this
  have fresh := (List.nodup_cons.1 nodup).1
  have inFree {y : Nat} (member : y ∈ q.vq.freeDesc :: xs) : y ∈ free := by
    rw [parts]
    exact List.mem_append_left rest member
  -- the queue after the first round
  let vq' : Vq := { q.vq.setDesc q.vq.freeDesc d with freeDesc := d.next.toNat }
  have inside {y : Nat} (member : y ∈ xs ++ rest) : vq'.desc y = q.vq.desc y :=
    setDesc_other q.vq d fun same => fresh (same ▸ member)
  have atHead : vq'.desc q.vq.freeDesc = d := setDesc_self ..
  have bound (y : Nat) (member : y ∈ q.vq.freeDesc :: xs) : (q.vq.desc y).next.toNat < q.vq.num :=
    conserves.nexts y (inFree member)
  have chain₁ : Chain vq'.desc vq'.freeDesc (xs ++ rest) := by
    show Chain vq'.desc d.next.toNat (xs ++ rest)
    rw [here]
    exact later.congr fun y member => inside member
  have links₁ : ds.map Desc.next = xs.map fun x => (vq'.desc x).next := by
    rw [tail]
    exact List.map_congr_left fun y member => by rw [inside (List.mem_append_left _ member)]
  have nexts₁ : ∀ y ∈ xs, (vq'.desc y).next.toNat < vq'.num := by
    intro y member
    rw [inside (List.mem_append_left _ member)]
    exact bound y (List.mem_cons_of_mem _ member)
  have start₁ : vq'.freeDesc < vq'.num := by
    show d.next.toNat < q.vq.num
    rw [here]
    exact bound _ List.mem_cons_self
  obtain ⟨desc', start, l, done, end_, linked, outside, chain', start'⟩ :=
    addLoop_links chain₁ nodup links₁ nexts₁ start₁
  rw [atHead] at linked
  have nodupX : (q.vq.freeDesc :: xs).Nodup := nodup.sublist ((List.sublist_append_left xs rest).cons_cons _)
  refine ⟨Function.update desc' l (closed (desc' l)), start, ?_, linked.close nodupX end_, ?_, ?_, start', rfl⟩
  · have room : q.vq.freeDesc < virtqueueMaxSize := Nat.lt_of_lt_of_le conserves.start conserves.small
    have idle : (q.vq.data q.vq.freeDesc).isSome = false := by
      rw [conserves.idle _ (inFree List.mem_cons_self)]
      rfl
    have first : addLoop q.vq none (d :: ds) = addLoop vq' (some q.vq.freeDesc) ds := by
      rw [addLoop, inTable, if_pos conserves.start, ok_bind]
      dsimp only
      rw [setDesc_self]
    rw [virtioAddBuf, if_neg (List.cons_ne_nil d ds)]
    dsimp only
    rw [inData, if_pos room, ok_bind, if_neg (by rw [idle]; decide), first, done, ok_bind]
    rfl
  · intro y out
    have other : y ≠ l := fun same => out (same ▸ List.mem_of_getLast? end_)
    rw [Function.update_of_ne other, outside y out]
    exact setDesc_other q.vq d fun same => out (same ▸ List.mem_cons_self)
  · exact chain'.congr fun y member => (inside (List.mem_append_right _ member)).symm

theorem Conserves.full (conserves : Conserves q free) {descs : List Desc} (given : descs ≠ [])
    (held : (q.vq.data q.vq.freeDesc).isSome = true) (cookie : Cookie) :
    virtioAddBuf q.vq descs cookie = .ok (q.vq, ebusy) := by
  have room : q.vq.freeDesc < virtqueueMaxSize := Nat.lt_of_lt_of_le conserves.start conserves.small
  rw [virtioAddBuf, if_neg given]
  dsimp only
  rw [inData, if_pos room, ok_bind, if_pos held]

/-- With enough free descriptors, the first of them and the rest. -/
theorem Conserves.split (conserves : Conserves q free) {descs : List Desc}
    (enough : descs.length + q.busy.length ≤ q.vq.num) (follows : Follows q.vq.desc q.vq.freeDesc descs) :
    ∃ xs rest, free = xs ++ rest ∧ descs.map Desc.next = xs.map fun x => (q.vq.desc x).next := by
  have count := conserves.count
  refine ⟨free.take descs.length, free.drop descs.length, (List.take_append_drop ..).symm, ?_⟩
  have chain := conserves.chain
  rw [← List.take_append_drop descs.length free] at chain
  refine links_of_follows chain follows ?_
  rw [List.length_take]
  omega

/-- A request goes to the device. -/
theorem Conserves.added (conserves : Conserves q free) {d : Desc} {ds : List Desc} {cookie : Cookie}
    (enough : (d :: ds).length + q.busy.length ≤ q.vq.num) (follows : Follows q.vq.desc q.vq.freeDesc (d :: ds))
    (given : cookie.isSome = true) :
    ∃ q' free', perform q (.addBuf (d :: ds) cookie) = .ok q' ∧ Conserves q' free' := by
  obtain ⟨xs, rest, parts, links⟩ := conserves.split enough follows
  obtain ⟨desc', start, filled, linked, outside, chain, start', first⟩ :=
    virtioAddBuf_fills conserves parts links cookie
  have took : taken q.vq.freeDesc (d :: ds) = xs := taken_eq (parts ▸ conserves.chain) links
  have nodup := conserves.nodup
  have apart {x : Nat} (member : x ∈ xs) : x ∉ rest ++ q.busy := by
    rw [parts, List.append_assoc] at nodup
    exact fun there => (List.nodup_append.1 nodup).2.2 x member x there rfl
  have head := List.mem_of_head? first
  have busyOther {x : Nat} (busy : x ∈ q.busy) : x ∉ xs := fun member => apart member (List.mem_append_right _ busy)
  refine ⟨{ q with
    vq := { q.vq with
      desc := desc'
      freeDesc := start
      data := Function.update q.vq.data q.vq.freeDesc cookie
      availRing := Function.update q.vq.availRing (q.vq.availIdx.toNat % q.vq.num) (UInt16.ofNat q.vq.freeDesc)
      availIdx := q.vq.availIdx + 1 }
    requests := ⟨cookie, xs, d :: ds⟩ :: q.requests
    submitted := q.submitted ++ [cookie] }, rest, ?_, ?_⟩
  · rw [perform, filled, ok_bind]
    dsimp only
    rw [if_pos rfl, took]
  · have restOther {x : Nat} (member : x ∈ rest) : x ∉ xs := fun there => apart there (List.mem_append_left _ member)
    refine ⟨chain.congr fun x member => outside x (restOther member), ?_, start', conserves.small, ?_, ?_, ?_, ?_, ?_,
      conserves.used, conserves.entries, ?_, conserves.distinct⟩
    · show (rest ++ (xs ++ q.busy)).Perm (List.range q.vq.num)
      refine List.Perm.trans ?_ conserves.perm
      rw [parts, ← List.append_assoc]
      exact List.perm_append_comm.append_right _
    · intro x member
      show (desc' x).next.toNat < q.vq.num
      rw [outside x (restOther member)]
      exact conserves.nexts x (parts ▸ List.mem_append_right xs member)
    · intro x member
      show Function.update q.vq.data q.vq.freeDesc cookie x = none
      have other : x ≠ q.vq.freeDesc := fun same => restOther member (same ▸ head)
      rw [Function.update_of_ne other]
      exact conserves.idle x (parts ▸ List.mem_append_right xs member)
    · intro r member
      rcases List.mem_cons.1 member with rfl | before
      · exact linked
      · refine (conserves.linked r before).congr fun x inside => outside x (busyOther ?_)
        exact List.mem_flatMap.2 ⟨r, before, inside⟩
    · intro r member
      show ∃ head, r.StartsAt head ∧ Function.update q.vq.data q.vq.freeDesc cookie head = r.cookie ∧ _
      rcases List.mem_cons.1 member with rfl | before
      · exact ⟨q.vq.freeDesc, first, Function.update_self .., given⟩
      · obtain ⟨head', starts, data, some_⟩ := conserves.cookies r before
        have other : head' ≠ q.vq.freeDesc := fun same => busyOther (StartsAt.mem_busy before starts) (same ▸ head)
        refine ⟨head', starts, ?_, some_⟩
        rw [Function.update_of_ne other]
        exact data
    · show (q.returned ++ cookie :: q.requests.map Request.cookie).Perm (q.submitted ++ [cookie])
      refine List.perm_middle.trans ((conserves.once.cons cookie).trans ?_)
      exact (List.perm_append_singleton _ _).symm
    · intro head' completed
      obtain ⟨r, member, starts⟩ := conserves.known head' completed
      exact ⟨r, List.mem_cons_of_mem _ member, starts⟩

/-- A first descriptor belongs to one request. -/
theorem Conserves.unique (conserves : Conserves q free) {before after : List Request} {r : Request} {head : Nat}
    (parts : q.requests = before ++ r :: after) (starts : r.StartsAt head) :
    (∀ x ∈ before ++ after, ¬ x.StartsAt head) ∧ q.requests.eraseP (Request.StartsAt head) = before ++ after := by
  have nodup := (List.nodup_append.1 conserves.nodup).2.1
  rw [Queue.busy, parts, List.flatMap_append, List.flatMap_cons, List.nodup_append, List.nodup_append] at nodup
  obtain ⟨_, ⟨_, _, later⟩, earlier⟩ := nodup
  have mine : head ∈ r.chain := List.mem_of_head? starts
  have notBefore : ∀ x ∈ before, ¬ x.StartsAt head := by
    intro x member also
    refine earlier head (List.mem_flatMap.2 ⟨x, member, List.mem_of_head? also⟩) head ?_ rfl
    exact List.mem_append_left _ mine
  refine ⟨?_, ?_⟩
  · intro x member also
    rcases List.mem_append.1 member with here | there
    · exact notBefore x here also
    · exact later head mine head (List.mem_flatMap.2 ⟨x, there, List.mem_of_head? also⟩) rfl
  · rw [parts, List.eraseP_append_right _ (by simpa using notBefore), List.eraseP_cons_of_pos (by simpa using starts)]

theorem Conserves.completed_lt (conserves : Conserves q free) : q.completed.length ≤ q.vq.num := by
  have sub : ∀ head ∈ q.completed, head ∈ List.range q.vq.num := by
    intro head completed
    obtain ⟨r, member, starts⟩ := conserves.known head completed
    exact List.mem_range.2 (conserves.lt (List.mem_append_right _ (StartsAt.mem_busy member starts)))
  simpa using (conserves.distinct.subperm sub).length_le

/-- The driver sees a completion exactly if there is one. -/
theorem Conserves.pending_iff (conserves : Conserves q free) :
    q.vq.lastUsedIdx = q.vq.usedIdx ↔ q.completed = [] := by
  have few := conserves.completed_lt
  have small := conserves.small
  rw [← conserves.used]
  constructor
  · intro same
    have zero : (UInt16.ofNat q.completed.length).toNat = 0 := by
      have := congrArg UInt16.toNat same
      rw [UInt16.toNat_add] at this
      have bound := (UInt16.ofNat q.completed.length).toNat_lt
      have bound' := q.vq.lastUsedIdx.toNat_lt
      omega
    rw [UInt16.toNat_ofNat', Nat.mod_eq_of_lt (by unfold virtqueueMaxSize at small; omega)] at zero
    exact List.length_eq_zero_iff.1 zero
  · intro none
    rw [none]
    simp

theorem ofNat_succ (n : Nat) : UInt16.ofNat (n + 1) = UInt16.ofNat n + 1 := UInt16.ofNat_add n 1

/-- What `virtio_get_buf` does with a completion. -/
theorem Conserves.get (conserves : Conserves q free) {head : Nat} {later : List Nat}
    (pending : q.completed = head :: later) :
    ∃ r ∈ q.requests, r.StartsAt head ∧ virtioGetBuf q.vq = .ok ({ q.vq.setDesc head
        { q.vq.desc head with next := UInt16.ofNat q.vq.freeDesc } with
      data := Function.update q.vq.data head none
      freeDesc := head
      lastUsedIdx := q.vq.lastUsedIdx + 1 }, r.cookie) := by
  obtain ⟨r, member, starts⟩ := conserves.known head (pending ▸ List.mem_cons_self)
  obtain ⟨head', starts', data, _⟩ := conserves.cookies r member
  obtain rfl : head = head' := Option.some.inj (starts.symm.trans starts')
  have bound : head < q.vq.num := conserves.lt (List.mem_append_right _ (StartsAt.mem_busy member starts))
  have small := conserves.small
  have some_ : ¬ q.vq.lastUsedIdx = q.vq.usedIdx := fun same => by
    rw [conserves.pending_iff.1 same] at pending
    cases pending
  have id : (q.vq.usedRing (q.vq.lastUsedIdx.toNat % q.vq.num)).1.toNat % 65536 = head := by
    have entry := conserves.entries 0 head (by rw [pending]; rfl)
    have here : slot q.vq 0 = q.vq.lastUsedIdx.toNat % q.vq.num := by simp [slot]
    unfold virtqueueMaxSize at small
    rw [here] at entry
    rw [entry, UInt32.toNat_ofNat']
    omega
  refine ⟨r, member, starts, ?_⟩
  rw [virtioGetBuf, if_neg some_]
  dsimp only
  rw [id, inData, if_pos (Nat.lt_of_lt_of_le bound small), inTable, if_pos bound, ok_bind, ok_bind, data]

/-- A request with one descriptor is its first descriptor. -/
theorem StartsAt.alone {r : Request} {head : Nat} (starts : r.StartsAt head) (single : r.chain.length = 1) :
    r.chain = [head] := by
  obtain ⟨x, same⟩ := List.length_eq_one_iff.1 single
  have first : r.chain.head? = some head := starts
  rw [same] at first
  rw [same, Option.some.inj first]

/-- The descriptor of a finished request joins the free ones. -/
theorem Conserves.perm_freed (conserves : Conserves q free) {before after : List Request} {r : Request}
    {head : Nat} (parts : q.requests = before ++ r :: after) (alone : r.chain = [head]) :
    (head :: free ++ (before ++ after).flatMap Request.chain).Perm (List.range q.vq.num) := by
  have busy : q.busy.Perm (head :: (before ++ after).flatMap Request.chain) := by
    rw [Queue.busy, parts, List.flatMap_append, List.flatMap_append, List.flatMap_cons, alone]
    exact List.perm_middle
  refine List.Perm.trans ?_ conserves.perm
  exact (List.perm_middle.symm).trans (busy.symm.append_left free)

/-- The cookie of a finished request moves to the returned ones. -/
theorem Conserves.once_returned (conserves : Conserves q free) {before after : List Request} {r : Request}
    (parts : q.requests = before ++ r :: after) :
    (q.returned ++ [r.cookie] ++ (before ++ after).map Request.cookie).Perm q.submitted := by
  have once := conserves.once
  rw [parts, List.map_append, List.map_cons] at once
  refine List.Perm.trans ?_ once
  rw [List.map_append, List.append_assoc, List.singleton_append]
  exact List.perm_middle.symm.append_left q.returned

/-- The indices once the driver is past the first completion. -/
theorem Conserves.used_past (conserves : Conserves q free) {head : Nat} {later : List Nat}
    (pending : q.completed = head :: later) :
    q.vq.lastUsedIdx + 1 + UInt16.ofNat later.length = q.vq.usedIdx := by
  have used := conserves.used
  rw [pending, List.length_cons, ofNat_succ] at used
  rw [← used, UInt16.add_assoc, UInt16.add_comm 1]

/-- The ring once the driver is past the first completion. -/
theorem Conserves.entries_past (conserves : Conserves q free) {head : Nat} {later : List Nat}
    (pending : q.completed = head :: later) {k head' : Nat} (there : later[k]? = some head') :
    (q.vq.usedRing ((q.vq.lastUsedIdx + 1 + UInt16.ofNat k).toNat % q.vq.num)).1 = UInt32.ofNat head' := by
  have entry := conserves.entries (k + 1) head' (by rw [pending]; exact there)
  have same : slot q.vq (k + 1) = (q.vq.lastUsedIdx + 1 + UInt16.ofNat k).toNat % q.vq.num := by
    rw [slot, ofNat_succ, UInt16.add_assoc, UInt16.add_comm 1]
  rw [same] at entry
  exact entry

/-- The later completions belong to the requests that stay. -/
theorem Conserves.known_past (conserves : Conserves q free) {before after : List Request} {r : Request}
    {head : Nat} {later : List Nat} (parts : q.requests = before ++ r :: after) (starts : r.StartsAt head)
    (pending : q.completed = head :: later) {head' : Nat} (there : head' ∈ later) :
    ∃ x ∈ before ++ after, x.StartsAt head' := by
  obtain ⟨x, inside, starts'⟩ := conserves.known head' (pending ▸ List.mem_cons_of_mem _ there)
  have ne : head' ≠ head := fun same => by
    have distinct := conserves.distinct
    rw [pending] at distinct
    exact (List.nodup_cons.1 distinct).1 (same ▸ there)
  rw [parts] at inside
  rcases List.mem_append.1 inside with here | here
  · exact ⟨x, List.mem_append_left _ here, starts'⟩
  · rcases List.mem_cons.1 here with rfl | here
    · exact absurd (Option.some.inj (starts'.symm.trans starts)) ne
    · exact ⟨x, List.mem_append_right _ here, starts'⟩

/-- **A request with one descriptor comes back**, and its descriptor is free again. -/
theorem Conserves.got (conserves : Conserves q free) {head : Nat} {later : List Nat}
    (pending : q.completed = head :: later)
    (single : ∀ r ∈ q.requests, r.StartsAt head → r.chain.length = 1) :
    ∃ q', perform q .getBuf = .ok q' ∧ Conserves q' (head :: free) := by
  obtain ⟨r, member, starts, got⟩ := conserves.get pending
  obtain ⟨before, after, parts⟩ := List.append_of_mem member
  obtain ⟨others, erased⟩ := conserves.unique parts starts
  have alone : r.chain = [head] := StartsAt.alone starts (single r member starts)
  have inOld {x : Request} (inside : x ∈ before ++ after) : x ∈ q.requests := by
    rw [parts]
    rcases List.mem_append.1 inside with here | there
    · exact List.mem_append_left _ here
    · exact List.mem_append_right _ (List.mem_cons_of_mem _ there)
  have all := conserves.perm_freed parts alone
  have nodup := all.nodup_iff.2 List.nodup_range
  rw [List.cons_append, List.nodup_cons] at nodup
  have fresh : head ∉ free := fun there => nodup.1 (List.mem_append_left _ there)
  have apart {x : Request} (inside : x ∈ before ++ after) : head ∉ x.chain := fun there =>
    nodup.1 (List.mem_append_right _ (List.mem_flatMap.2 ⟨x, inside, there⟩))
  have bound : head < q.vq.num := List.mem_range.1 (all.mem_iff.1 List.mem_cons_self)
  have small := conserves.small
  have start := conserves.start
  unfold virtqueueMaxSize at small
  have freeNat : (UInt16.ofNat q.vq.freeDesc).toNat = q.vq.freeDesc := by
    rw [UInt16.toNat_ofNat']
    omega
  have other {x : Nat} (ne : x ≠ head) : (q.vq.setDesc head
      { q.vq.desc head with next := UInt16.ofNat q.vq.freeDesc }).desc x = q.vq.desc x := setDesc_other _ _ ne
  refine ⟨{ q with
    vq := { q.vq.setDesc head { q.vq.desc head with next := UInt16.ofNat q.vq.freeDesc } with
      data := Function.update q.vq.data head none
      freeDesc := head
      lastUsedIdx := q.vq.lastUsedIdx + 1 }
    requests := before ++ after
    completed := later
    returned := q.returned ++ [r.cookie] }, ?_, ?_⟩
  · rw [perform, got, ok_bind]
    dsimp only
    rw [pending]
    dsimp only
    rw [erased]
  · refine ⟨⟨rfl, ?_⟩, all, bound, conserves.small, ?_, ?_, ?_, ?_, conserves.once_returned parts,
      conserves.used_past pending, fun k head' there => conserves.entries_past pending there,
      fun head' there => conserves.known_past parts starts pending there, ?_⟩
    · show Chain (q.vq.setDesc head _).desc ((q.vq.setDesc head _).desc head).next.toNat free
      rw [setDesc_self, freeNat]
      exact conserves.chain.congr fun x inside => other fun same => fresh (same ▸ inside)
    · intro x inside
      show ((q.vq.setDesc head _).desc x).next.toNat < q.vq.num
      rcases List.mem_cons.1 inside with rfl | there
      · rw [setDesc_self, freeNat]
        exact start
      · rw [other fun same => fresh (same ▸ there)]
        exact conserves.nexts x there
    · intro x inside
      show Function.update q.vq.data head none x = none
      by_cases same : x = head
      · rw [same, Function.update_self]
      · rw [Function.update_of_ne same]
        exact conserves.idle x ((List.mem_cons.1 inside).resolve_left same)
    · intro x inside
      refine (conserves.linked x (inOld inside)).congr fun y there => other fun same => ?_
      exact apart inside (same ▸ there)
    · intro x inside
      obtain ⟨head', starts', data, some_⟩ := conserves.cookies x (inOld inside)
      refine ⟨head', starts', ?_, some_⟩
      have ne : head' ≠ head := fun same => others x inside (same ▸ starts')
      show Function.update q.vq.data head none head' = x.cookie
      rw [Function.update_of_ne ne]
      exact data
    · have distinct := conserves.distinct
      rw [pending] at distinct
      exact (List.nodup_cons.1 distinct).2

/-- The device completes a request. -/
theorem Conserves.complete (conserves : Conserves q free) {head : Nat} {len : UInt32}
    (allowed : Allowed q (.complete head len)) (clean : Clean q (.complete head len)) :
    Conserves { q with vq := complete q.vq head len, completed := q.completed ++ [head] } free := by
  refine { conserves with used := ?_, entries := ?_, known := ?_, distinct := ?_ }
  · show q.vq.lastUsedIdx + UInt16.ofNat (q.completed ++ [head]).length = q.vq.usedIdx + 1
    rw [List.length_append, List.length_singleton, ofNat_succ, ← conserves.used, UInt16.add_assoc]
  · intro k head' there
    show (Function.update q.vq.usedRing (q.vq.usedIdx.toNat % q.vq.num) (UInt32.ofNat head, len) (slot q.vq k)).1 = _
    by_cases before : k < q.completed.length
    · rw [List.getElem?_append_left before] at there
      rw [Function.update_of_ne (clean k before)]
      exact conserves.entries k head' there
    · have last : k = q.completed.length := by
        have := (List.getElem?_eq_some_iff.1 there).1
        rw [List.length_append, List.length_singleton] at this
        omega
      subst last
      have here : slot q.vq q.completed.length = q.vq.usedIdx.toNat % q.vq.num := by rw [slot, conserves.used]
      rw [List.getElem?_concat_length] at there
      rw [here, Function.update_self, Option.some.inj there]
  · intro head' there
    rcases List.mem_append.1 there with before | new
    · exact conserves.known head' before
    · rw [List.mem_singleton.1 new]
      exact allowed.1
  · refine List.nodup_append.2 ⟨conserves.distinct, by simp, fun x there y here same => ?_⟩
    rw [List.mem_singleton.1 here] at same
    exact allowed.2 (same ▸ there)

theorem perform_conserves (conserves : Conserves q free) {call : Call} (allowed : Allowed q call)
    (clean : Clean q call) : ∃ q' free', perform q call = .ok q' ∧ Conserves q' free' := by
  cases call with
  | addBuf descs cookie =>
      cases descs with
      | nil => exact ⟨q, free, rfl, conserves⟩
      | cons d ds =>
          rcases clean with empty | ⟨_, held⟩ | ⟨enough, follows, given⟩
          · cases empty
          · refine ⟨q, free, ?_, conserves⟩
            rw [perform, conserves.full (List.cons_ne_nil d ds) held cookie, ok_bind]
            rfl
          · exact conserves.added enough follows given
  | getBuf =>
      cases pending : q.completed with
      | nil =>
          refine ⟨q, free, ?_, conserves⟩
          rw [perform, virtioGetBuf, if_pos (conserves.pending_iff.2 pending), ok_bind]
          dsimp only
          split
          · rfl
          · rename_i some_
            rw [pending] at some_
            cases some_
      | cons head later =>
          obtain ⟨q', done, conserves'⟩ := conserves.got pending (clean head (by rw [pending]; rfl))
          exact ⟨q', _, done, conserves'⟩
  | complete head len => exact ⟨_, free, rfl, conserves.complete allowed clean⟩

end Conserves

/-! ## Runs -/

theorem chain_range (num n start : Nat) (count : start + n = num) (small : num ≤ virtqueueMaxSize) :
    Chain (setupQueue num).desc start (List.range' start n) := by
  induction n generalizing start with
  | zero => trivial
  | succ n ih =>
      refine ⟨rfl, ?_⟩
      cases n with
      | zero => trivial
      | succ n =>
          have next : ((setupQueue num).desc start).next.toNat = start + 1 := by
            have more : start + 1 < num := by omega
            unfold virtqueueMaxSize at small
            show (if start + 1 < num then UInt16.ofNat (start + 1) else 0).toNat = start + 1
            rw [if_pos more, UInt16.toNat_ofNat']
            omega
          rw [next]
          exact ih (start + 1) (by omega)

theorem initial_conserves {num : Nat} (positive : 0 < num) (small : num ≤ virtqueueMaxSize) :
    Conserves (initial num) (List.range num) where
  chain := by
    rw [List.range_eq_range']
    exact chain_range num num 0 (Nat.zero_add num) small
  perm := by
    show (List.range num ++ []).Perm (List.range num)
    rw [List.append_nil]
  start := positive
  small := small
  nexts := by
    intro x member
    show (if x + 1 < num then UInt16.ofNat (x + 1) else 0).toNat < num
    unfold virtqueueMaxSize at small
    split
    · rw [UInt16.toNat_ofNat']
      omega
    · exact positive
  idle := fun _ _ => rfl
  linked := nofun
  cookies := nofun
  once := .nil
  used := rfl
  entries := nofun
  known := nofun
  distinct := List.nodup_nil

/-- What the queue promises: every descriptor is on the free chain or with exactly one request,
whose chain is linked as it was given; an addition succeeds exactly if there are enough free
descriptors, and else changes nothing; and a completion gives back the cookie of its request,
each cookie once. -/
def Conserved (q : Queue) : Prop :=
  ∃ free, Chain q.vq.desc q.vq.freeDesc free ∧ (free ++ q.busy).Perm (List.range q.vq.num) ∧
    (∀ r ∈ q.requests, LinkedBy closed q.vq.desc r.chain r.given) ∧
    (∀ descs cookie, descs ≠ [] → AddClean q descs cookie →
      (descs.length ≤ free.length → ∃ vq, virtioAddBuf q.vq descs cookie = .ok (vq, 0)) ∧
      (free.length < descs.length → virtioAddBuf q.vq descs cookie = .ok (q.vq, ebusy))) ∧
    (q.completed = [] → virtioGetBuf q.vq = .ok (q.vq, none)) ∧
    (∀ head ∈ q.completed.head?, ∃ r ∈ q.requests, r.StartsAt head ∧
      ∃ vq, virtioGetBuf q.vq = .ok (vq, r.cookie)) ∧
    (q.returned ++ q.requests.map Request.cookie).Perm q.submitted

theorem Conserves.conserved {q : Queue} {free : List Nat} (conserves : Conserves q free) : Conserved q := by
  have count := conserves.count
  refine ⟨free, conserves.chain, conserves.perm, conserves.linked, ?_, ?_, ?_, conserves.once⟩
  · intro descs cookie given clean
    rcases clean with empty | ⟨full, held⟩ | ⟨enough, follows, _⟩
    · exact absurd empty given
    · refine ⟨fun fits => ?_, fun _ => conserves.full given held cookie⟩
      have := List.length_pos_of_ne_nil given
      omega
    · refine ⟨fun _ => ?_, fun short => by omega⟩
      obtain ⟨d, ds, rfl⟩ := List.exists_cons_of_ne_nil given
      obtain ⟨xs, rest, parts, links⟩ := conserves.split enough follows
      obtain ⟨desc', start, filled, _⟩ := virtioAddBuf_fills conserves parts links cookie
      exact ⟨_, filled⟩
  · intro none
    rw [virtioGetBuf, if_pos (conserves.pending_iff.2 none)]
  · intro head first
    obtain ⟨later, pending⟩ : ∃ later, q.completed = head :: later := by
      cases completed : q.completed with
      | nil =>
          rw [completed] at first
          cases first
      | cons x later =>
          rw [completed] at first
          cases first
          exact ⟨later, rfl⟩
    obtain ⟨r, member, starts, got⟩ := conserves.get pending
    exact ⟨r, member, starts, _, got⟩

/-- **Descriptors are conserved in every run of clean calls.** -/
theorem descriptors_conserved {num : Nat} (positive : 0 < num) (small : num ≤ virtqueueMaxSize)
    {calls : List Call} (admitted : (machine.guard CleanStep).Admits (.ok (initial num)) calls) :
    Ends Conserved (fun _ => False) (machine.run (.ok (initial num)) calls) := by
  rw [← machine.guard_run CleanStep]
  have kept : Ends (fun q => ∃ free, Conserves q free) (fun _ => False)
      ((machine.guard CleanStep).run (.ok (initial num)) calls) := by
    refine Machine.run_invariant _ (I := Ends (fun q => ∃ free, Conserves q free) fun _ => False) ?_
      (s := .ok (initial num)) ⟨_, initial_conserves positive small⟩ admitted
    intro q call conserves both
    cases q with
    | error e => exact conserves
    | ok q =>
        obtain ⟨free, conserves⟩ := conserves
        obtain ⟨q', free', done, conserves'⟩ := perform_conserves conserves both.1 both.2
        show Ends _ _ (perform q call)
        rw [done]
        exact ⟨free', conserves'⟩
  exact kept.mono (fun q some_ => some_.elim fun free conserves => conserves.conserved) fun _ fault => fault

/-! ### A block request -/

section Decide

instance decidableFollows (desc : Nat → Desc) : ∀ idx ds, Decidable (Follows desc idx ds)
  | _, [] => isTrue trivial
  | idx, d :: rest =>
      have := decidableFollows desc d.next.toNat rest
      inferInstanceAs (Decidable (d.next = (desc idx).next ∧ Follows desc d.next.toNat rest))

instance (q : Queue) : ∀ call, Decidable (Clean q call)
  | .addBuf descs _ => inferInstanceAs (Decidable (descs = [] ∨ (_ ∧ _) ∨ (_ ∧ _ ∧ _)))
  | .getBuf => inferInstanceAs (Decidable (∀ head ∈ q.completed.head?, ∀ r ∈ q.requests, _))
  | .complete _ _ => inferInstanceAs (Decidable (∀ k < q.completed.length, _))

instance (q : Queue) : ∀ call, Decidable (Allowed q call)
  | .addBuf _ _ => isTrue trivial
  | .getBuf => isTrue trivial
  | .complete head _ => inferInstanceAs (Decidable ((∃ r ∈ q.requests, r.StartsAt head) ∧ _))

instance (q : Except Fault Queue) (call : Call) : Decidable (machine.enabled q call) :=
  inferInstanceAs (Decidable (Ends _ _ _))

instance (q : Except Fault Queue) (call : Call) : Decidable ((machine.guard CleanStep).enabled q call) :=
  inferInstanceAs (Decidable (Ends _ _ _ ∧ Ends _ _ _))

end Decide

/-- Three requests that carry on the links; the first two complete in the other order. -/
def outOfOrder : List Call :=
  [.addBuf [⟨0x1000, 512, 0, 1⟩] (some 7), .addBuf [⟨0x2000, 512, 0, 2⟩] (some 8),
    .addBuf [⟨0x3000, 16, 1, 3⟩, ⟨0x4000, 512, 0, 4⟩] (some 9), .complete 1 512, .complete 0 512, .getBuf, .getBuf]

theorem descriptors_conserved_order :
    (machine.guard CleanStep).Admits (.ok (initial 16)) outOfOrder ∧
    ∃ q, machine.run (.ok (initial 16)) outOfOrder = .ok q ∧ q.returned = [some 8, some 7] ∧
      q.requests.length = 1 ∧ Conserved q := by
  have admitted : (machine.guard CleanStep).Admits (.ok (initial 16)) outOfOrder := by decide +kernel
  have conserved := descriptors_conserved (by decide) (by decide) admitted
  obtain ⟨q, ran, returned, left⟩ : ∃ q, machine.run (.ok (initial 16)) outOfOrder = .ok q ∧
      q.returned = [some 8, some 7] ∧ q.requests.length = 1 := Ends.returns (by decide +kernel)
  rw [ran] at conserved
  exact ⟨admitted, q, ran, returned, left, conserved⟩

/-- The three descriptors of `virtio_blk_request`: header, buffer and status. -/
def blkRequest : List Desc := [⟨0x1000, 16, 0, 1⟩, ⟨0x2000, 512, 2, 2⟩, ⟨0x3000, 1, 2, 0⟩]

/-- **A block request loses descriptors**: once it has completed nothing is outstanding, and the
free chain is descriptor 0 over and over. -/
theorem block_request_loses_descriptors :
    machine.Admits (.ok (initial 16)) [.addBuf blkRequest (some 7), .complete 0 512, .getBuf] ∧
    ∃ q, machine.run (.ok (initial 16)) [.addBuf blkRequest (some 7), .complete 0 512, .getBuf] = .ok q ∧
      q.requests.length = 0 ∧ q.returned = [some 7] ∧ q.vq.freeDesc = 0 ∧ (q.vq.desc 0).next = 0 ∧ ¬ Conserved q := by
  refine ⟨by decide +kernel, ?_⟩
  obtain ⟨q, ran, none_, num, returned, start, next⟩ : ∃ q,
      machine.run (.ok (initial 16)) [.addBuf blkRequest (some 7), .complete 0 512, .getBuf] = .ok q ∧
      q.requests.length = 0 ∧ q.vq.num = 16 ∧ q.returned = [some 7] ∧ q.vq.freeDesc = 0 ∧ (q.vq.desc 0).next = 0 :=
    Ends.returns (by decide +kernel)
  refine ⟨q, ran, none_, returned, start, next, ?_⟩
  rintro ⟨free, chain, perm, _⟩
  have busy : q.busy = [] := by rw [Queue.busy, List.length_eq_zero_iff.1 none_, List.flatMap_nil]
  rw [busy, num, List.append_nil] at perm
  have nodup := perm.nodup_iff.2 List.nodup_range
  match free, chain, nodup, perm.length_eq with
  | x :: y :: rest, ⟨first, second, _⟩, nodup, _ =>
      rw [start] at first
      rw [first, next] at second
      exact (List.nodup_cons.1 nodup).1 (by rw [first, second]; exact List.mem_cons_self)

end Minus.Driver.Virtqueue
